import OpenWright.Python.Number
import Mathlib.Algebra.Order.Field.Rat
import Mathlib.Tactic.Linarith

/-! # Padded numbers

Numbers written with a least number of characters, as `f"{n:012d}"` writes them: texts of one length
have the order of the numbers they denote. -/

namespace OpenWright.Python

/-! ## The value of digits -/

/-- Padding does not change the number. -/
theorem natOf_padding (k n : Nat) :
    Json.natOf (List.replicate k (cp 48) ++ Json.natText n) = n := by
  rw [Json.natOf_append, Json.natOf_zeros, Nat.zero_mul, Nat.zero_add, (Json.natText_digits n).2]

/-- Digits denote less than the power of ten for their number. -/
theorem natOf_lt {ds : Str} (h : ∀ c ∈ ds, Json.isDigit c = true) :
    Json.natOf ds < 10 ^ ds.length := by
  induction ds with
  | nil => decide
  | cons c ds ih =>
      rw [List.forall_mem_cons] at h
      have hc : 48 ≤ c.val ∧ c.val < 58 := by simpa [Json.isDigit] using h.1
      have hrest := ih h.2
      rw [show c :: ds = [c] ++ ds from rfl, Json.natOf_append, List.length_append,
        List.length_singleton, pow_add, pow_one]
      have hone : Json.natOf [c] = c.val - 48 := by simp [Json.natOf]
      rw [hone]
      nlinarith [Nat.sub_le_iff_le_add.mpr (by omega : c.val ≤ 9 + 48)]

/-- **Digit strings of one length** are ordered as the numbers they denote. -/
theorem digits_lt_of_lt {ds es : Str} (hds : ∀ c ∈ ds, Json.isDigit c = true)
    (hes : ∀ c ∈ es, Json.isDigit c = true) (hlength : ds.length = es.length) (h : ds < es) :
    Json.natOf ds < Json.natOf es := by
  induction ds generalizing es with
  | nil =>
      cases es with
      | nil => exact absurd h (lt_irrefl _)
      | cons e es => cases hlength
  | cons d ds ih =>
      cases es with
      | nil => exact absurd h (List.not_lt_nil _)
      | cons e es =>
          rw [List.forall_mem_cons] at hds hes
          rw [List.length_cons, List.length_cons, Nat.add_right_cancel_iff] at hlength
          have hd : 48 ≤ d.val ∧ d.val < 58 := by simpa [Json.isDigit] using hds.1
          have he : 48 ≤ e.val ∧ e.val < 58 := by simpa [Json.isDigit] using hes.1
          have hone : ∀ c : CodePoint, Json.natOf [c] = c.val - 48 := fun c => by simp [Json.natOf]
          rw [show d :: ds = [d] ++ ds from rfl, show e :: es = [e] ++ es from rfl, Json.natOf_append,
            Json.natOf_append, hone, hone, hlength]
          rcases List.cons_lt_cons_iff.mp h with hlt | ⟨rfl, hlt⟩
          · -- the first digit decides
            have hlt' : d.val < e.val := hlt
            have hsmall := natOf_lt hds.2
            rw [hlength] at hsmall
            have hmul : (d.val - 48 + 1) * 10 ^ es.length ≤ (e.val - 48) * 10 ^ es.length :=
              Nat.mul_le_mul_right _ (by omega)
            rw [Nat.add_mul, Nat.one_mul] at hmul
            omega
          · have := ih hds.2 hes.2 hlength hlt
            omega

/-- The order of texts of one length does not depend on what follows them. -/
theorem append_lt_append {s t : Str} (hlength : s.length = t.length) (h : s < t) (u v : Str) :
    s ++ u < t ++ v := by
  induction s generalizing t with
  | nil =>
      rw [List.length_nil, eq_comm, List.length_eq_zero_iff] at hlength
      rw [hlength] at h
      exact absurd h (lt_irrefl _)
  | cons c s ih =>
      cases t with
      | nil => cases hlength
      | cons d t =>
          rw [List.length_cons, List.length_cons, Nat.add_right_cancel_iff] at hlength
          refine List.cons_lt_cons_iff.mpr ?_
          rcases List.cons_lt_cons_iff.mp h with hlt | ⟨rfl, hlt⟩
          · exact Or.inl hlt
          · exact Or.inr ⟨rfl, ih hlength hlt⟩

/-! ## Padding -/

/-- The decimal text of a number, with zeros after its sign up to a width. -/
def zeroPadded (width : Nat) (z : Int) : Str :=
  let ds := Json.natText z.natAbs
  if z < 0 then cp 45 :: (List.replicate (width - 1 - ds.length) (cp 48) ++ ds)
  else List.replicate (width - ds.length) (cp 48) ++ ds

/-- The minus sign does not pad. -/
theorem head_padding (k n : Nat) :
    (List.replicate k (cp 48) ++ Json.natText n).head? ≠ some (cp 45) := by
  intro h
  obtain ⟨c, rest, hc, -⟩ := Json.natText_cons n
  have hdigit : Json.isDigit c = true := (Json.natText_digits n).1 c (hc ▸ List.mem_cons_self)
  cases k with
  | zero =>
      rw [List.replicate_zero, List.nil_append, hc, List.head?_cons, Option.some.injEq] at h
      rw [h] at hdigit
      exact absurd hdigit (by decide)
  | succ k =>
      rw [List.replicate_succ, List.cons_append, List.head?_cons, Option.some.injEq] at h
      exact absurd h (by decide)

/-- Different numbers are padded differently. -/
theorem zeroPadded_injective (width : Nat) : Function.Injective (zeroPadded width) := by
  intro m n h
  unfold zeroPadded at h
  dsimp only at h
  split at h
  · rename_i hm
    split at h
    · rename_i hn
      have hdigits := congrArg Json.natOf (List.cons.inj h).2
      rw [natOf_padding, natOf_padding] at hdigits
      omega
    · exact absurd (congrArg List.head? h).symm (head_padding _ _)
  · rename_i hm
    split at h
    · exact absurd (congrArg List.head? h) (head_padding _ _)
    · rename_i hn
      have hdigits := congrArg Json.natOf h
      rw [natOf_padding, natOf_padding] at hdigits
      omega

/-- A number below a power of ten has at most as many digits. -/
theorem length_natText_le {n k : Nat} (h : n < 10 ^ (k + 1)) : (Json.natText n).length ≤ k + 1 := by
  induction k generalizing n with
  | zero =>
      rw [Json.natText, if_pos (by omega)]
      rfl
  | succ k ih =>
      rw [Json.natText]
      split
      · rw [List.length_singleton]
        omega
      · rw [List.length_append, List.length_singleton]
        have hdiv : n / 10 < 10 ^ (k + 1) := Nat.div_lt_of_lt_mul (by rw [← pow_succ']; exact h)
        have := ih hdiv
        omega

/-- A padded number is written in digits and a minus sign. -/
theorem of_mem_zeroPadded {width : Nat} {z : Int} {c : CodePoint} (hc : c ∈ zeroPadded width z) :
    Json.isDigit c = true ∨ c = cp 45 := by
  have hdigits : ∀ k, c ∈ List.replicate k (cp 48) ++ Json.natText z.natAbs →
      Json.isDigit c = true := by
    intro k hmem
    rcases List.mem_append.mp hmem with hmem | hmem
    · exact Json.isDigit_zeros c hmem
    · exact (Json.natText_digits _).1 c hmem
  rw [zeroPadded] at hc
  split at hc
  · rcases List.mem_cons.mp hc with rfl | hmem
    · exact Or.inr rfl
    · exact Or.inl (hdigits _ hmem)
  · exact Or.inl (hdigits _ hc)

/-- A padded number is of characters of ASCII. -/
theorem ascii_zeroPadded {width : Nat} {z : Int} {c : CodePoint} (hc : c ∈ zeroPadded width z) :
    c.val < 128 := by
  rcases of_mem_zeroPadded hc with hdigit | rfl
  · have hval : 48 ≤ c.val ∧ c.val < 58 := by simpa [Json.isDigit] using hdigit
    omega
  · decide

/-- Without a width nothing is padded. -/
theorem zeroPadded_zero (z : Int) : zeroPadded 0 z = Json.intText z := by
  rw [zeroPadded, Json.intText, Nat.zero_sub]
  rfl

/-- A number that has as many digits as the width is not padded. -/
theorem zeroPadded_eq_intText {k : Nat} {z : Int} (h : 10 ^ k ≤ z) :
    zeroPadded (k + 1) z = Json.intText z := by
  have hpos : ¬z < 0 := not_lt.mpr (le_trans (by positivity) h)
  have hlength : k + 1 ≤ (Json.natText z.natAbs).length := by
    obtain ⟨hdigits, hval⟩ := Json.natText_digits z.natAbs
    have hlt : z.natAbs < 10 ^ (Json.natText z.natAbs).length := by
      have := natOf_lt hdigits
      rwa [hval] at this
    by_contra hshort
    have hpow := Nat.pow_le_pow_right (n := 10) (by decide) (show
      (Json.natText z.natAbs).length ≤ k by omega)
    zify at hlt hpow
    rw [abs_of_nonneg (not_lt.mp hpos)] at hlt
    exact absurd h (not_le.mpr (hlt.trans_le hpow))
  rw [zeroPadded, Json.intText, if_neg hpos, if_neg hpos, Nat.sub_eq_zero_of_le hlength]
  rfl

/-- A number that fits the width is written with as many digits. -/
theorem zeroPadded_spec {k : Nat} {z : Int} (hpos : 0 ≤ z) (h : z < 10 ^ (k + 1)) :
    (∀ c ∈ zeroPadded (k + 1) z, Json.isDigit c = true) ∧ (zeroPadded (k + 1) z).length = k + 1 ∧
      (Json.natOf (zeroPadded (k + 1) z) : Int) = z := by
  have hpadded : zeroPadded (k + 1) z
      = List.replicate (k + 1 - (Json.natText z.natAbs).length) (cp 48) ++ Json.natText z.natAbs :=
    if_neg (by omega)
  have hlength : (Json.natText z.natAbs).length ≤ k + 1 := by
    refine length_natText_le ?_
    zify
    rw [abs_of_nonneg hpos]
    exact h
  rw [hpadded]
  refine ⟨fun c hc => ?_, ?_, ?_⟩
  · rcases List.mem_append.mp hc with hc | hc
    · exact Json.isDigit_zeros c hc
    · exact (Json.natText_digits _).1 c hc
  · rw [List.length_append, List.length_replicate]
    omega
  · rw [natOf_padding]
    omega

/-- **The order of numbers of one width is that of their texts.** -/
theorem zeroPadded_lt {k : Nat} {x y : Int} (hx : 0 ≤ x) (h : x < y) (hy : y < 10 ^ (k + 1)) :
    zeroPadded (k + 1) x < zeroPadded (k + 1) y := by
  obtain ⟨hdigits, hlength, hval⟩ := zeroPadded_spec hx (h.trans hy)
  obtain ⟨hdigits', hlength', hval'⟩ := zeroPadded_spec (hx.trans h.le) hy
  rcases lt_trichotomy (zeroPadded (k + 1) x) (zeroPadded (k + 1) y) with hlt | heq | hgt
  · exact hlt
  · exact absurd (zeroPadded_injective (k + 1) heq) h.ne
  · have := digits_lt_of_lt hdigits' hdigits (hlength'.trans hlength.symm) hgt
    omega

/-! ## Fractions -/

/-- What digits after a point denote. -/
def fracValue : Str → Rat
  | [] => 0
  | c :: s => (((c.val - 48 : Nat) : Rat) + fracValue s) / 10

/-- A fraction is less than one. -/
theorem fracValue_bounds {s : Str} (h : ∀ c ∈ s, Json.isDigit c = true) :
    0 ≤ fracValue s ∧ fracValue s < 1 := by
  induction s with
  | nil => exact ⟨le_refl _, zero_lt_one⟩
  | cons c s ih =>
      rw [List.forall_mem_cons] at h
      obtain ⟨hpos, hlt⟩ := ih h.2
      have hc : 48 ≤ c.val ∧ c.val < 58 := by simpa [Json.isDigit] using h.1
      have hdigit : ((c.val - 48 : Nat) : Rat) ≤ 9 := by exact_mod_cast (by omega : c.val - 48 ≤ 9)
      rw [fracValue]
      constructor
      · positivity
      · rw [div_lt_one (by norm_num)]
        linarith

/-- **Smaller fractions are smaller texts**, where a text that goes on is the larger one. -/
theorem lt_of_fracValue_lt {s t : Str} (hs : ∀ c ∈ s, Json.isDigit c = true)
    (ht : ∀ c ∈ t, Json.isDigit c = true) (h : fracValue s < fracValue t) : s < t := by
  induction s generalizing t with
  | nil =>
      cases t with
      | nil => exact absurd h (lt_irrefl _)
      | cons d t => exact List.nil_lt_cons d t
  | cons c s ih =>
      cases t with
      | nil => exact absurd h (not_lt.mpr (fracValue_bounds hs).1)
      | cons d t =>
          rw [List.forall_mem_cons] at hs ht
          have hc : 48 ≤ c.val ∧ c.val < 58 := by simpa [Json.isDigit] using hs.1
          have hd : 48 ≤ d.val ∧ d.val < 58 := by simpa [Json.isDigit] using ht.1
          rw [fracValue, fracValue, div_lt_div_iff_of_pos_right (by norm_num)] at h
          rcases lt_trichotomy c d with hlt | rfl | hgt
          · exact List.cons_lt_cons_iff.mpr (Or.inl hlt)
          · exact List.cons_lt_cons_iff.mpr (Or.inr ⟨rfl, ih hs.2 ht.2 (by linarith)⟩)
          · -- the first digit is a tenth more than the rest can make up for
            have hval : d.val < c.val := hgt
            have hone : ((d.val - 48 : Nat) : Rat) + 1 ≤ ((c.val - 48 : Nat) : Rat) := by
              exact_mod_cast (by omega : d.val - 48 + 1 ≤ c.val - 48)
            have hpos := (fracValue_bounds hs.2).1
            have hless := (fracValue_bounds ht.2).2
            linarith

end OpenWright.Python
